import AutoTest.ResourceSteps
import AutoTest.WorkerLifecycle

/-!
# The descriptors an interface keeps

A socket belongs to the worker that made it until the worker wraps it in a bufferevent, and a
bufferevent keeps its descriptor until an event ends its connection. While the interface never
closes a number twice, all it keeps are open descriptors of its own, no two of them the same.
-/

namespace AutoTest

open OutputMachines

variable {ι : Type*}

/-- The socket a worker of a client holds between `socket` and `bufferevent_socket_new`. -/
def WorkerPc.pendingFd : WorkerPc → Option Fd
  | .clientBaseNew _ fd | .clientSocketNew _ fd _ => some fd
  | _ => none

namespace DescriptorOwnership

/-- The interface obtained the descriptor from `socket` or accept and has not closed it since. -/
def Holds (s : Sys ι) (fd : Fd) : Prop :=
  s.world.fds fd = some (.socket s.world.me) ∨ s.world.fds fd = some (.connection s.world.me)

/-- The bufferevent whose connection an action ends. -/
def ends : Action → Option Handle
  | .event bev what => if EndsConnection what then some bev else none
  | _ => none

/-- One of the actions ended the connection of the bufferevent. -/
def Ended (as : List Action) (b : Handle) : Prop := ∃ a ∈ as, ends a = some b

/-- What an interface keeps a descriptor in. -/
inductive Slot
  | bufferevent (b : Handle)
  | pending
  deriving DecidableEq

/-- After the actions `as`, the slot keeps the descriptor. -/
def Keeps (as : List Action) (s : Sys ι) : Slot → Fd → Prop
  | .bufferevent b, fd =>
    ¬ Ended as b ∧ ∃ r, s.world.heap.bufferevents b = some r ∧ r.fd = fd
  | .pending, fd => ∃ pc ∈ s.workers, pc.pendingFd = some fd

/-- The part of the state that says whose the descriptors are. -/
structure Owning (as : List Action) (s : Sys ι) : Prop where
  oneWorker : OneWorker s
  callback : ∃ cb, s.world.ati.mCallback = some cb ∧ cb.cls = myCallback
  held : ∀ slot fd, Keeps as s slot fd → Holds s fd
  unique : ∀ slot slot' fd, Keeps as s slot fd → Keeps as s slot' fd → slot = slot'
  listeners : ∀ l r, s.world.heap.listeners l = some r →
    s.world.fds r.fd = some (.listening s.world.me)

/-- The action closes only what the interface keeps: no listener error, no second end of a
connection, no destructor while `conn` is a bufferevent whose connection was ended. -/
def ClosesOnce (as : List Action) (s : Sys ι) : Action → Prop
  | .event bev what => EndsConnection what → ¬ Ended as bev
  | .listenerError _ _ => False
  | .destroy => ∀ b ∈ s.world.ati.conn, ¬ Ended as b
  | _ => True

instance (as : List Action) (b : Handle) : Decidable (Ended as b) :=
  inferInstanceAs (Decidable (∃ a ∈ as, ends a = some b))

instance (s : Sys ι) [DecidableEq ι] (fd : Fd) : Decidable (Holds s fd) :=
  inferInstanceAs (Decidable (_ ∨ _))

instance (as : List Action) (s : Sys ι) (a : Action) : Decidable (ClosesOnce as s a) := by
  rcases a with _ | _ <;> dsimp only [ClosesOnce] <;> infer_instance

theorem owning_initial (me : ι) (ip : CString) (port : UInt32) (mode : ℤ) (fds : FdTable ι) :
    Owning [] (.initial me (.configured myCallback ip port mode) fds) where
  oneWorker := oneWorker_initial me (some (.new myCallback)) ip port mode fds
  callback := ⟨.new myCallback, rfl, rfl⟩
  held := by
    rintro (b | _) fd h
    · obtain ⟨-, r, hr, -⟩ := h
      cases hr
    · obtain ⟨pc, hpc, -⟩ := h
      cases hpc
  unique := by
    rintro (b | _) slot' fd h -
    · obtain ⟨-, r, hr, -⟩ := h
      cases hr
    · obtain ⟨pc, hpc, -⟩ := h
      cases hpc
  listeners := by
    intro l r hr
    cases hr

theorem not_ended_of_snoc {as : List Action} {a : Action} {b : Handle}
    (h : ¬ Ended (as ++ [a]) b) : ¬ Ended as b ∧ ends a ≠ some b := by
  constructor
  · rintro ⟨a', ha', he⟩
    exact h ⟨a', List.mem_append_left _ ha', he⟩
  · intro he
    exact h ⟨a, by simp, he⟩

variable (inetAddr : CString → UInt32)

/-- A worker holds a socket because it just made it or because it held it before. -/
theorem pending_origin {w : World ι} {pc pc' : WorkerPc} {o : Outcome} {fd : Fd}
    (h : (workerStep inetAddr w pc o).1 = some pc') (hfd : pc'.pendingFd = some fd) :
    (pc = .clientEntry ∧ o.ok = true ∧ o.fd = fd) ∨ ∃ addr, pc = .clientBaseNew addr fd := by
  cases pc with
  | clientEntry =>
    cases hok : o.ok with
    | false => simp [workerStep, hok] at h
    | true =>
      by_cases hneg : -1 = o.fd
      · simp [workerStep, hok, hneg] at h
      · simp only [workerStep, hok, if_true, hneg, if_false] at h
        cases h
        cases hfd
        exact .inl ⟨rfl, rfl, rfl⟩
  | clientBaseNew addr d =>
    cases h
    cases hfd
    exact .inr ⟨addr, rfl⟩
  | serverSetErrorCb base listener => cases listener <;> cases h <;> cases hfd
  | clientConnect addr base conn =>
    simp only [workerStep] at h
    split at h <;> cases h <;> cases hfd
  | _ =>
    cases h
    try cases hfd

variable [DecidableEq ι]

section Step

variable {as : List Action} {s t : Sys ι} {a : Action} {out : List Call}

/-- Where a slot has its descriptor from: it kept it before the action, the worker handed its
socket to a new bufferevent, or the descriptor is new. -/
inductive Origin (as : List Action) (s : Sys ι) : Action → Slot → Fd → Prop
  | kept {a slot fd} (h : Keeps as s slot fd)
      (hends : ∀ b, slot = .bufferevent b → ends a ≠ some b)
      (hwrap : slot = .pending → ∀ k o addr d base, a = .worker k o →
        s.workers[k]? ≠ some (.clientSocketNew addr d base)) : Origin as s a slot fd
  | wrapped {k o addr fd base} (h : s.workers[k]? = some (.clientSocketNew addr fd base)) :
      Origin as s (.worker k o) (.bufferevent s.world.heap.fresh) fd
  | accepted {listener fd ok} :
      Origin as s (.accept listener fd ok) (.bufferevent s.world.heap.fresh) fd
  | opened {k o} (h : s.workers[k]? = some .clientEntry) (hok : o.ok = true) :
      Origin as s (.worker k o) .pending o.fd

theorem keeps_origin (h : Owning as s) (hen : Enabled s a)
    (heff : effect inetAddr s a = (t, out)) {slot : Slot} {fd : Fd}
    (hk : Keeps (as ++ [a]) t slot fd) : Origin as s a slot fd := by
  have ht : t = (effect inetAddr s a).1 := by rw [heff]
  cases slot with
  | bufferevent b =>
    obtain ⟨hend, r, hr, rfl⟩ := hk
    obtain ⟨hold, hne⟩ := not_ended_of_snoc hend
    rw [ht] at hr
    rcases bufferevent_origin inetAddr hr with
      ⟨r₀, hr₀, hfd, -⟩ | ⟨rfl, ⟨l, ok, rfl⟩ | ⟨k, o, addr, base, rfl, hk⟩⟩
    · refine .kept ⟨hold, r₀, hr₀, hfd.symm⟩ ?_ ?_
      · rintro b' hb
        cases hb
        exact hne
      · intro hp
        cases hp
    · exact .accepted
    · exact .wrapped hk
  | pending =>
    obtain ⟨pc, hpc, hfd⟩ := hk
    by_cases hworker : ∃ k o, a = .worker k o
    · obtain ⟨k, o, rfl⟩ := hworker
      obtain ⟨-, pc₀, hk₀, -⟩ := hen
      rw [workers_of_step inetAddr h.oneWorker hk₀ heff] at hpc
      rcases pending_origin inetAddr (Option.mem_toList.mp hpc) hfd with
        ⟨rfl, hok, rfl⟩ | ⟨addr, rfl⟩
      · exact .opened hk₀ hok
      · refine .kept ⟨_, List.mem_of_getElem? hk₀, rfl⟩ (fun b hb => by cases hb) ?_
        rintro - k' o' addr' d' base' he hk'
        cases he
        rw [Option.mem_def.mp hk₀] at hk'
        cases hk'
    · have hold : pc ∈ s.workers := by
        rw [ht, effect_workers] at hpc
        cases a with
        | start created =>
          rcases List.mem_append.mp hpc with hpc | hpc
          · exact hpc
          · rw [start_thread] at hpc
            split at hpc
            · split at hpc
              · cases List.mem_singleton.mp hpc
                cases hfd
              · split at hpc
                · cases List.mem_singleton.mp hpc
                  cases hfd
                · cases hpc
            · cases hpc
        | worker k o => exact absurd ⟨k, o, rfl⟩ hworker
        | _ => exact hpc
      exact .kept ⟨pc, hold, hfd⟩ (fun b hb => by cases hb)
        fun _ k o _ _ _ he => absurd ⟨k, o, he⟩ hworker

omit [DecidableEq ι] in
theorem not_holds_of_unused {fd : Fd} (h : s.Unused fd) : ¬ Holds s fd := by
  have hnone := Option.isNone_iff_eq_none.mp h.2
  simp [Holds, hnone]

omit [DecidableEq ι] in
/-- A bufferevent whose connection is not over keeps its descriptor. -/
theorem keeps_of_live {bev : Handle} (hlive : s.Live bev) (hend : ¬ Ended as bev) :
    Keeps as s (.bufferevent bev) (s.world.buffereventGetfd bev) := by
  obtain ⟨r, hr, -⟩ := hlive
  exact ⟨hend, r, hr, (World.buffereventGetfd_eq hr).symm⟩

theorem holds_kept (h : Owning as s) (hen : Enabled s a) (hclose : ClosesOnce as s a)
    (ha : a ≠ .destroy) (heff : effect inetAddr s a = (t, out)) {slot : Slot} {fd : Fd}
    (hk : Keeps as s slot fd) (hends : ∀ b, slot = .bufferevent b → ends a ≠ some b) :
    Holds t fd := by
  obtain ⟨cb, hcb, hcls⟩ := h.callback
  have hchange := fd_change inetAddr hcb hcls hen ha fd
  have hme := effect_me inetAddr s a
  rw [heff] at hchange hme
  have hs := h.held slot fd hk
  unfold Holds at hs ⊢
  rw [hme]
  rcases hchange with hsame | hnone | ⟨-, hconn⟩ | ⟨bev, what, rfl, hwhat, rfl⟩ |
    ⟨l, err, rfl⟩ | hrest
  · rwa [hsame]
  · simp [hnone] at hs
  · exact .inr hconn
  · have hbev := keeps_of_live hen.2.1 (hclose hwhat)
    have hslot := h.unique _ _ _ hk hbev
    exact absurd (if_pos hwhat) (hends bev hslot)
  · exact hclose.elim
  · simp [hrest] at hs

theorem held_step (h : Owning as s) (hen : Enabled s a) (hclose : ClosesOnce as s a)
    (ha : a ≠ .destroy) (heff : effect inetAddr s a = (t, out)) (slot : Slot) (fd : Fd)
    (hk : Keeps (as ++ [a]) t slot fd) : Holds t fd := by
  obtain ⟨cb, hcb, hcls⟩ := h.callback
  have hfds := effect_fds inetAddr hcb hcls a
  have hme := effect_me inetAddr s a
  rw [heff] at hfds hme
  cases keeps_origin inetAddr h hen heff hk with
  | kept hs hends _ => exact holds_kept inetAddr h hen hclose ha heff hs hends
  | wrapped hw =>
    have hpending : Keeps as s .pending fd := ⟨_, List.mem_of_getElem? hw, rfl⟩
    exact holds_kept inetAddr h hen hclose ha heff hpending fun b hb => by cases hb
  | accepted =>
    refine .inr ?_
    rw [hfds, hme]
    exact Function.update_self _ _ _
  | @opened k o hw hok =>
    refine .inl ?_
    obtain ⟨-, pc, hpc, hout⟩ := hen
    rw [hw] at hpc
    cases hpc
    have hne : o.fd ≠ -1 := Fd.ne_failure (hout hok).1
    rw [hfds, hme]
    simp only [hw, workerStep_fds, hok, hne, ne_eq, not_false_eq_true, and_self, if_true]
    exact Function.update_self _ _ _

theorem unique_step (h : Owning as s) (hen : Enabled s a)
    (heff : effect inetAddr s a = (t, out)) (slot slot' : Slot) (fd : Fd)
    (hk : Keeps (as ++ [a]) t slot fd) (hk' : Keeps (as ++ [a]) t slot' fd) : slot = slot' := by
  have hpending {k : ℕ} {addr : SockaddrIn} {base : Option Handle} {fd : Fd}
      (hw : s.workers[k]? = some (.clientSocketNew addr fd base)) : Keeps as s .pending fd :=
    ⟨_, List.mem_of_getElem? hw, rfl⟩
  have hopened {k : ℕ} {o : Outcome} (hen : Enabled s (.worker k o))
      (hw : s.workers[k]? = some .clientEntry) (hok : o.ok = true) : ¬ Holds s o.fd := by
    obtain ⟨-, pc, hpc, hout⟩ := hen
    rw [hw] at hpc
    cases hpc
    exact not_holds_of_unused (hout hok)
  cases keeps_origin inetAddr h hen heff hk with
  | kept hs _ hwrap =>
    cases keeps_origin inetAddr h hen heff hk' with
    | kept hs' _ _ => exact h.unique _ _ _ hs hs'
    | wrapped hw' =>
      have hslot := h.unique _ _ _ hs (hpending hw')
      exact absurd hw' (hwrap hslot _ _ _ _ _ rfl)
    | accepted => exact absurd (h.held _ _ hs) (not_holds_of_unused hen.2.2)
    | opened hw' hok => exact absurd (h.held _ _ hs) (hopened hen hw' hok)
  | wrapped hw =>
    cases keeps_origin inetAddr h hen heff hk' with
    | kept hs' _ hwrap' =>
      have hslot := h.unique _ _ _ hs' (hpending hw)
      exact absurd hw (hwrap' hslot _ _ _ _ _ rfl)
    | wrapped _ => rfl
    | opened hw' _ =>
      rw [hw] at hw'
      cases hw'
  | accepted =>
    cases keeps_origin inetAddr h hen heff hk' with
    | kept hs' _ _ => exact absurd (h.held _ _ hs') (not_holds_of_unused hen.2.2)
    | accepted => rfl
  | opened hw hok =>
    cases keeps_origin inetAddr h hen heff hk' with
    | kept hs' _ _ => exact absurd (h.held _ _ hs') (hopened hen hw hok)
    | wrapped hw' =>
      rw [hw] at hw'
      cases hw'
    | opened _ _ => rfl

theorem listeners_step (h : Owning as s) (hen : Enabled s a) (hclose : ClosesOnce as s a)
    (ha : a ≠ .destroy) (heff : effect inetAddr s a = (t, out)) (l : Handle)
    (r : Evconnlistener) (hl : t.world.heap.listeners l = some r) :
    t.world.fds r.fd = some (.listening t.world.me) := by
  obtain ⟨cb, hcb, hcls⟩ := h.callback
  have hme := effect_me inetAddr s a
  have hfds := effect_fds inetAddr hcb hcls a
  have horigin := listener_origin inetAddr (s := s) (l := l) (r := r) ha
  have hchange := fd_change inetAddr hcb hcls hen ha r.fd
  rw [heff] at hme hfds horigin hchange
  rw [hme]
  rcases horigin hl with hold | ⟨k, o, addr, base, rfl, hk, hok, rfl, rfl⟩
  · have hs := h.listeners l r hold
    rcases hchange with hsame | hnone | ⟨hsocket, -⟩ | ⟨bev, what, rfl, hwhat, hfd⟩ |
      ⟨l', err, rfl⟩ | hrest
    · rw [hsame]
      exact hs
    · rw [hs] at hnone
      cases hnone
    · rw [hs] at hsocket
      cases hsocket
    · have hbev := h.held _ _ (keeps_of_live hen.2.1 (hclose hwhat))
      rw [← hfd] at hbev
      simp [Holds, hs] at hbev
    · exact hclose.elim
    · rw [hs] at hrest
      cases hrest
  · rw [hfds]
    simp only [hk, workerStep_fds, hok, if_true]
    exact Function.update_self _ _ _

theorem callback_step (h : Owning as s) (ha : a ≠ .destroy)
    (heff : effect inetAddr s a = (t, out)) :
    ∃ cb, t.world.ati.mCallback = some cb ∧ cb.cls = myCallback := by
  obtain ⟨cb, hcb, hcls⟩ := h.callback
  have hcallback := effect_mCallback inetAddr s a
  rw [heff] at hcallback
  rw [hcallback]
  have hset (fd : Fd) : (cb.setFd fd).cls = myCallback := by
    rw [AutoTestInterfaceCallback.setFd_cls]
    exact hcls
  cases a with
  | accept listener fd ok => exact ⟨cb.setFd fd, by rw [hcb]; rfl, hset fd⟩
  | event bev what =>
    by_cases hc : hasFlag what bevEventConnected = true
    · exact ⟨cb.setFd (s.world.buffereventGetfd bev), by simp [hc, hcb], hset _⟩
    · exact ⟨cb, by simp [hc, hcb], hcls⟩
  | destroy => exact absurd rfl ha
  | _ => exact ⟨cb, hcb, hcls⟩

theorem owning_step (h : Owning as s) (hen : Enabled s a) (hclose : ClosesOnce as s a)
    (ha : a ≠ .destroy) (heff : effect inetAddr s a = (t, out)) : Owning (as ++ [a]) t where
  oneWorker := oneWorker_step inetAddr h.oneWorker hen heff
  callback := callback_step inetAddr h ha heff
  held := held_step inetAddr h hen hclose ha heff
  unique := unique_step inetAddr h hen heff
  listeners := listeners_step inetAddr h hen hclose ha heff

/-- What the destructor closes is the descriptor `conn` keeps and that of the listener. -/
theorem destroy_closes (h : Owning as s) (hclose : ClosesOnce as s .destroy) (fd : Fd) :
    (effect inetAddr s .destroy).1.world.fds fd = s.world.fds fd ∨ Holds s fd ∨
      s.world.fds fd = some (.listening s.world.me) := by
  have hfds : (effect inetAddr s .destroy).1.world.fds =
      (destroy { s.world with calls := [] }).fds := rfl
  rw [hfds, destroy_fds]
  dsimp only
  split
  · rename_i hfd
    rcases hfd with ⟨r, hr, rfl⟩ | ⟨r, hr, rfl⟩
    · obtain ⟨b, hb, hr⟩ := Option.bind_eq_some_iff.mp hr
      exact .inr (.inl (h.held (.bufferevent b) _ ⟨hclose b hb, r, hr, rfl⟩))
    · obtain ⟨l, -, hr⟩ := Option.bind_eq_some_iff.mp hr
      exact .inr (.inr (h.listeners l r hr))
  · exact .inl rfl

/-- The interface that a holder belongs to. -/
def owner : Holder ι → Option ι
  | .socket i | .connection i | .listening i => some i
  | .rest => none

/-- Between two descriptor tables nothing of an interface other than `me` changed. -/
def ForeignKept (me : ι) (fds fds' : FdTable ι) : Prop :=
  ∀ fd h j, fds fd = some h → owner h = some j → j ≠ me → fds' fd = some h

omit [DecidableEq ι] in
theorem owner_of_holds {fd : Fd} {h : Holder ι} (hh : Holds s fd)
    (hfd : s.world.fds fd = some h) : owner h = some s.world.me := by
  rcases hh with hh | hh <;> rw [hh] at hfd <;> cases hfd <;> rfl

/-- An interface that closes only what it keeps leaves the descriptors of the others alone. -/
theorem foreign_kept (h : Owning as s) (hen : Enabled s a) (hclose : ClosesOnce as s a)
    (heff : effect inetAddr s a = (t, out)) :
    ForeignKept s.world.me s.world.fds t.world.fds := by
  have ht : t = (effect inetAddr s a).1 := by rw [heff]
  intro fd holder j hfd hj hne
  have hforeign : ¬ Holds s fd := by
    intro hh
    rw [owner_of_holds hh hfd] at hj
    cases hj
    exact hne rfl
  by_cases ha : a = .destroy
  · subst ha
    rcases destroy_closes inetAddr h hclose fd with hsame | hh | hl
    · rw [ht, hsame, hfd]
    · exact absurd hh hforeign
    · rw [hl] at hfd
      cases hfd
      cases hj
      exact absurd rfl hne
  · obtain ⟨cb, hcb, hcls⟩ := h.callback
    have hchange := fd_change inetAddr hcb hcls hen ha fd
    rw [heff] at hchange
    rcases hchange with hsame | hnone | ⟨hsocket, -⟩ | ⟨bev, what, rfl, hwhat, rfl⟩ |
      ⟨l, err, rfl⟩ | hrest
    · rw [hsame, hfd]
    · rw [hnone] at hfd
      cases hfd
    · exact absurd (.inl hsocket) hforeign
    · exact absurd (h.held _ _ (keeps_of_live hen.2.1 (hclose hwhat))) hforeign
    · exact hclose.elim
    · rw [hrest] at hfd
      cases hfd
      cases hj

/-- The call closes no descriptor, or one that the interface holds; the descriptor of a listener
is one it listens on. -/
def ClosesOwn (s : Sys ι) : Call → Prop
  | .os (.close fd) => Holds s fd
  | .event (.buffereventFree b) => ∀ r ∈ b.bind s.world.heap.bufferevents, Holds s r.fd
  | .event (.evconnlistenerFree l) =>
    ∀ r ∈ l.bind s.world.heap.listeners, s.world.fds r.fd = some (.listening s.world.me)
  | _ => True

instance (s : Sys ι) (c : Call) : Decidable (ClosesOwn s c) := by
  unfold ClosesOwn
  split <;> infer_instance

theorem closesOwn_step (h : Owning as s) (hen : Enabled s a) (hclose : ClosesOnce as s a) :
    ∀ c ∈ (effect inetAddr s a).2, ClosesOwn s c := by
  obtain ⟨cb, hcb, hcls⟩ := h.callback
  cases a with
  | start created =>
    have hcalls : (effect inetAddr s (.start created)).2 ⊆ [.pthreadCreate created] := by
      simp only [effect, start]
      split
      · split
        · exact fun _ hc => hc
        · split
          · exact fun _ hc => hc
          · exact fun _ hc => absurd hc List.not_mem_nil
      · exact fun _ hc => absurd hc List.not_mem_nil
    intro c hc
    cases List.mem_singleton.mp (hcalls hc)
    trivial
  | worker k o =>
    simp only [effect]
    cases s.workers[k]? with
    | none => simp
    | some pc =>
      cases pc <;> simp [workerStep, World.eventBaseNew, World.evconnlistenerNewBind,
        World.evconnlistenerSetErrorCb, World.socket, World.buffereventSocketNew,
        World.buffereventSocketConnect, World.buffereventSetcb, World.buffereventEnable,
        World.eventBaseDispatch, World.emit, ClosesOwn]
  | accept listener fd ok =>
    rw [accept_outputs inetAddr hcb, hcls]
    simp [myCallback, ClosesOwn]
  | readcb bev ok =>
    rw [readcb_outputs inetAddr hcb, hcls]
    by_cases hin : s.world.buffereventInput bev = [] <;> cases ok <;>
      simp [hin, myCallback, ClosesOwn]
  | writecb bev ok => cases ok <;> simp [effect, Sys.exec, autoTestWriteCb, World.malloc,
      World.evbufferRemove, ClosesOwn]
  | event bev what =>
    rw [event_outputs inetAddr hcb, hcls]
    cases hc : hasFlag what bevEventConnected with
    | true => simp [myCallback, ClosesOwn]
    | false =>
      cases hf : isFailure what with
      | true =>
        have hbev := h.held _ _ (keeps_of_live hen.2.1 (hclose ⟨hc, hf⟩))
        simp [myCallback, ClosesOwn, hbev]
      | false => simp
  | listenerError l err => exact hclose.elim
  | writeMessage msg len ret =>
    rw [writeMessage_outputs inetAddr hcb, hcls]
    simp [myCallback, ClosesOwn]
  | destroy =>
    have hcalls : (effect inetAddr s .destroy).2 = (destroy { s.world with calls := [] }).calls :=
      rfl
    have hconn : ∀ b ∈ s.world.ati.conn, ∀ r, s.world.heap.bufferevents b = some r →
        Holds s r.fd :=
      fun b hb r hr => h.held (.bufferevent b) _ ⟨hclose b hb, r, hr, rfl⟩
    rw [hcalls, destroy_calls]
    intro c hc
    simp only [List.mem_append, List.mem_map, List.mem_flatMap, Option.mem_toList] at hc
    rcases hc with ((((hc | hc) | ⟨b, hb, rfl⟩) | ⟨l, hl, rfl⟩) | ⟨b, hb, hc⟩) | ⟨b, hb, hc⟩
    · cases hc
    · split at hc
      · cases List.mem_singleton.mp hc
        trivial
      · cases hc
    · exact hconn b hb
    · exact fun r hr => h.listeners l r hr
    · rcases List.mem_cons.mp hc with rfl | hc
      · trivial
      · cases List.mem_singleton.mp hc
        trivial
    · rcases List.mem_cons.mp hc with rfl | hc
      · trivial
      · cases List.mem_singleton.mp hc
        trivial
  | _ => simp [effect, Sys.exec, World.setFds]

end Step

end DescriptorOwnership
end AutoTest
