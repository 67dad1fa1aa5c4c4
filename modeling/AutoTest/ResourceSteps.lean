import AutoTest.InterfaceSteps

/-!
# What one action does to descriptors and libevent objects

The descriptor table, the listeners and the released objects after an action, for an interface
whose callback object is a `MyCallback`.
-/

namespace AutoTest

open OutputMachines

variable {ι : Type*}

section Workers

variable (inetAddr : CString → UInt32) (w : World ι) (o : Outcome)

/-- Two points of a worker change the descriptor table. -/
theorem workerStep_fds (pc : WorkerPc) :
    (workerStep inetAddr w pc o).2.fds = match pc with
      | .clientEntry =>
        if o.ok ∧ o.fd ≠ -1 then Function.update w.fds o.fd (some (.socket w.me)) else w.fds
      | .serverBind _ (some _) =>
        if o.ok then Function.update w.fds o.fd (some (.listening w.me)) else w.fds
      | _ => w.fds := by
  cases pc with
  | clientEntry =>
    cases hok : o.ok with
    | false => simp [workerStep, World.socket, hok]
    | true =>
      by_cases hfd : o.fd = -1 <;> simp [workerStep, World.socket, hok, hfd]
  | serverBind addr base =>
    cases base <;> cases hok : o.ok <;> simp [workerStep, World.evconnlistenerNewBind, hok]
  | _ => rfl

theorem workerStep_listeners (pc : WorkerPc) :
    (workerStep inetAddr w pc o).2.heap.listeners = match pc with
      | .serverBind _ (some b) =>
        if o.ok then Function.update w.heap.listeners w.heap.fresh (some ⟨b, o.fd⟩)
        else w.heap.listeners
      | _ => w.heap.listeners := by
  cases pc with
  | serverBind addr base =>
    cases base <;> cases hok : o.ok <;> simp [workerStep, World.evconnlistenerNewBind, hok]
  | clientConnect addr base conn =>
    cases conn <;> cases hok : o.ok <;>
      simp [workerStep, World.buffereventSocketConnect, Heap.modify, hok]
  | _ => rfl

theorem workerStep_bufferevents (pc : WorkerPc) :
    (workerStep inetAddr w pc o).2.heap.bufferevents = match pc with
      | .clientSocketNew _ fd (some b) =>
        if o.ok then Function.update w.heap.bufferevents w.heap.fresh (some ⟨b, fd, [], false⟩)
        else w.heap.bufferevents
      | .clientConnect _ _ (some b) =>
        if o.ok then (w.heap.modify b fun r => { r with connecting := true }).bufferevents
        else w.heap.bufferevents
      | _ => w.heap.bufferevents := by
  cases pc with
  | clientSocketNew addr fd base =>
    cases base <;> cases hok : o.ok <;> simp [workerStep, World.buffereventSocketNew, hok]
  | clientConnect addr base conn =>
    cases conn <;> cases hok : o.ok <;> simp [workerStep, World.buffereventSocketConnect, hok]
  | _ => rfl

end Workers

section Destructor

variable (w : World ι)

/-- The calls of the destructor, in order. -/
theorem destroy_calls :
    (destroy w).calls = w.calls ++
      (if w.ati.mCallback.isSome then [.deleteCallback] else []) ++
      (w.ati.conn.toList.map fun b => .event (.buffereventFree (some b))) ++
      (w.ati.mBaselistener.toList.map fun l => .event (.evconnlistenerFree (some l))) ++
      (w.ati.serverBase.toList.flatMap fun b =>
        [.event (.eventBaseLoopexit (some b)), .event (.eventBaseFree (some b))]) ++
      (w.ati.clientBase.toList.flatMap fun b =>
        [.event (.eventBaseLoopexit (some b)), .event (.eventBaseFree (some b))]) := by
  have h₁ (v : World ι) : (freeConn v).calls = v.calls ++
      v.ati.conn.toList.map fun b => .event (.buffereventFree (some b)) := by
    cases hv : v.ati.conn <;> simp [freeConn, World.buffereventFree, hv]
  have h₂ (v : World ι) : (freeBaselistener v).calls = v.calls ++
      v.ati.mBaselistener.toList.map fun l => .event (.evconnlistenerFree (some l)) := by
    cases hv : v.ati.mBaselistener <;> simp [freeBaselistener, World.evconnlistenerFree, hv]
  have h₃ (v : World ι) : (freeServerBase v).calls = v.calls ++
      v.ati.serverBase.toList.flatMap fun b =>
        [.event (.eventBaseLoopexit (some b)), .event (.eventBaseFree (some b))] := by
    cases hv : v.ati.serverBase <;>
      simp [freeServerBase, World.eventBaseLoopexit, World.eventBaseFree, World.emit, hv]
  have h₄ (v : World ι) : (freeClientBase v).calls = v.calls ++
      v.ati.clientBase.toList.flatMap fun b =>
        [.event (.eventBaseLoopexit (some b)), .event (.eventBaseFree (some b))] := by
    cases hv : v.ati.clientBase <;>
      simp [freeClientBase, World.eventBaseLoopexit, World.eventBaseFree, World.emit, hv]
  have h₀ : (deleteCallback w).calls =
      w.calls ++ if w.ati.mCallback.isSome then [.deleteCallback] else [] := by
    unfold deleteCallback
    split <;> simp [World.emit, World.setCallback]
  rw [destroy, h₄, h₃, h₂, h₁, h₀]
  simp only [freeServerBase_ati, freeBaselistener_ati, freeConn_ati, deleteCallback_ati]

theorem destroy_fds :
    (destroy w).fds = fun fd =>
      if (∃ r ∈ w.ati.conn.bind w.heap.bufferevents, r.fd = fd) ∨
          ∃ r ∈ w.ati.mBaselistener.bind w.heap.listeners, r.fd = fd
      then none else w.fds fd := by
  have h₀ : (deleteCallback w).fds = w.fds := by unfold deleteCallback; split <;> rfl
  have h₁ (v : World ι) : (freeConn v).fds = fun fd =>
      if ∃ r ∈ v.ati.conn.bind v.heap.bufferevents, r.fd = fd then none else v.fds fd := by
    funext fd
    cases hc : v.ati.conn with
    | none => simp [freeConn, hc]
    | some b =>
      cases hb : v.heap.bufferevents b with
      | none => simp [freeConn, World.buffereventFree, hc, hb]
      | some r => simp [freeConn, World.buffereventFree, hc, hb, Function.update_apply, eq_comm]
  have h₁' (v : World ι) : (freeConn v).heap.listeners = v.heap.listeners := by
    unfold freeConn; split <;> rfl
  have h₂ (v : World ι) : (freeBaselistener v).fds = fun fd =>
      if ∃ r ∈ v.ati.mBaselistener.bind v.heap.listeners, r.fd = fd then none
      else v.fds fd := by
    funext fd
    cases hc : v.ati.mBaselistener with
    | none => simp [freeBaselistener, hc]
    | some l =>
      cases hl : v.heap.listeners l with
      | none => simp [freeBaselistener, World.evconnlistenerFree, hc, hl]
      | some r =>
        simp [freeBaselistener, World.evconnlistenerFree, hc, hl, Function.update_apply, eq_comm]
  have h₃ (v : World ι) : (freeServerBase v).fds = v.fds := by
    unfold freeServerBase; split <;> rfl
  have h₄ (v : World ι) : (freeClientBase v).fds = v.fds := by
    unfold freeClientBase; split <;> rfl
  rw [destroy, h₄, h₃, h₂, h₁, h₁']
  simp only [freeConn_ati, deleteCallback_ati, deleteCallback_heap, h₀]
  funext fd
  by_cases hl : ∃ r ∈ w.ati.mBaselistener.bind w.heap.listeners, r.fd = fd
  · rw [if_pos hl, if_pos (.inr hl)]
  · rw [if_neg hl]
    by_cases hc : ∃ r ∈ w.ati.conn.bind w.heap.bufferevents, r.fd = fd
    · rw [if_pos hc, if_pos (.inl hc)]
    · rw [if_neg hc, if_neg (not_or.mpr ⟨hc, hl⟩)]

end Destructor

section Steps

variable [DecidableEq ι] (inetAddr : CString → UInt32) {s : Sys ι}
  {cb : AutoTestInterfaceCallback}

omit [DecidableEq ι] in
theorem serverOnAccept_listeners (w : World ι) (listener : Handle) (fd : Fd) (ok : Bool) :
    (serverOnAccept w listener fd true ok).heap.listeners = w.heap.listeners := by
  cases hcb : w.ati.mCallback with
  | none =>
    rw [serverOnAccept_noCallback hcb]
    rfl
  | some cb =>
    rw [serverOnAccept_eq hcb]
    rfl

/-- The event callback runs its error branch. -/
def EndsConnection (what : BitVec 16) : Prop :=
  hasFlag what bevEventConnected = false ∧ isFailure what = true

instance (what : BitVec 16) : Decidable (EndsConnection what) :=
  inferInstanceAs (Decidable (_ ∧ _))

/-- The descriptor table after an action. -/
theorem effect_fds (hcb : s.world.ati.mCallback = some cb) (hcls : cb.cls = myCallback)
    (a : Action) :
    (effect inetAddr s a).1.world.fds = match a with
      | .worker k o =>
        match s.workers[k]? with
        | some pc => (workerStep inetAddr { s.world with calls := [] } pc o).2.fds
        | none => s.world.fds
      | .accept _ fd _ => Function.update s.world.fds fd (some (.connection s.world.me))
      | .event bev what =>
        let fds := (Sys.reportConnect s.world bev what).fds
        if EndsConnection what then Function.update fds (s.world.buffereventGetfd bev) none else fds
      | .listenerError _ _ => Function.update s.world.fds 0 none
      | .destroy => (destroy { s.world with calls := [] }).fds
      | .openOther fd => Function.update s.world.fds fd (some .rest)
      | .closeOther fd => Function.update s.world.fds fd none
      | _ => s.world.fds := by
  have hcb' : ({ s.world with calls := [] } : World ι).ati.mCallback = some cb := hcb
  cases a with
  | start created => exact (start_kept _ created).2.2
  | worker k o => simp only [effect]; cases s.workers[k]? <;> rfl
  | accept listener fd ok =>
    have hcb'' : (World.setFds { s.world with calls := [] } fd
      (some (.connection s.world.me))).ati.mCallback = some cb := hcb
    simp only [effect, Sys.exec, serverOnAccept_eq hcb'', hcls]
    rfl
  | readcb bev ok =>
    simp only [effect, Sys.exec]
    by_cases h : World.buffereventInput { s.world with calls := [] } bev = []
    · rw [autoTestOnReadcb_empty h]
    · cases ok with
      | false =>
        rw [autoTestOnReadcb_noMemory h]
        rfl
      | true =>
        rw [autoTestOnReadcb_delivers h hcb', hcls]
        rfl
  | writecb bev ok => cases ok <;> rfl
  | event bev what =>
    have hcb'' : (Sys.reportConnect { s.world with calls := [] } bev what).ati.mCallback =
        some cb := hcb
    simp only [effect, Sys.exec]
    cases hc : hasFlag what bevEventConnected with
    | true =>
      rw [autoTestEventCb_connected hcb'' hc, hcls, if_neg (by simp [EndsConnection, hc])]
      rfl
    | false =>
      cases hf : isFailure what with
      | true =>
        rw [autoTestEventCb_failure hcb'' hc hf, hcls, if_pos ⟨hc, hf⟩, reportConnect_getfd]
        rfl
      | false =>
        rw [autoTestEventCb_other hc hf, if_neg (by simp [EndsConnection, hf])]
        rfl
  | listenerError l err =>
    simp only [effect, Sys.exec, serverEvconnlistenerErrorcb_eq hcb', hcls]
    rfl
  | writeMessage msg len ret =>
    simp only [effect, Sys.exec, writeMessage, hcb, hcls]
    rfl
  | _ => rfl

theorem effect_listeners (a : Action) :
    (effect inetAddr s a).1.world.heap.listeners = match a with
      | .worker k o =>
        match s.workers[k]? with
        | some pc => (workerStep inetAddr { s.world with calls := [] } pc o).2.heap.listeners
        | none => s.world.heap.listeners
      | .destroy => (destroy { s.world with calls := [] }).heap.listeners
      | _ => s.world.heap.listeners := by
  cases a with
  | start created => exact congrArg Heap.listeners (start_kept _ created).2.1
  | worker k o => simp only [effect]; cases s.workers[k]? <;> rfl
  | accept listener fd ok =>
    simp only [effect, Sys.exec]
    exact serverOnAccept_listeners _ _ _ _
  | readcb bev ok =>
    simp only [effect, Sys.exec, autoTestOnReadcb]
    split
    · cases ok <;> cases h : s.world.ati.mCallback <;>
        simp [World.malloc, World.evbufferRemove, World.free, World.invoke, Heap.modify, h]
    · rfl
  | writecb bev ok => cases ok <;> rfl
  | event bev what =>
    simp only [effect, Sys.exec, autoTestEventCb_heap]
    rfl
  | listenerError l err =>
    simp only [effect, Sys.exec, serverEvconnlistenerErrorcb]
    cases s.world.ati.mCallback <;> rfl
  | writeMessage msg len ret =>
    simp only [effect, Sys.exec, writeMessage]
    cases s.world.ati.mCallback <;> rfl
  | _ => rfl

/-- Where a bufferevent comes from: it was there, a connection was accepted, or the worker of a
client made it for the socket it holds. -/
theorem bufferevent_origin {a : Action} {b : Handle} {r : Bufferevent}
    (h : (effect inetAddr s a).1.world.heap.bufferevents b = some r) :
    (∃ r₀, s.world.heap.bufferevents b = some r₀ ∧ r.fd = r₀.fd ∧ r.base = r₀.base) ∨
      b = s.world.heap.fresh ∧
        ((∃ listener ok, a = .accept listener r.fd ok) ∨
          ∃ k o addr base, a = .worker k o ∧
            s.workers[k]? = some (.clientSocketNew addr r.fd base)) := by
  have hmodify {b₀ : Handle} {f : Bufferevent → Bufferevent}
      (hr : (s.world.heap.modify b₀ f).bufferevents b = some r)
      (hf : ∀ r, (f r).fd = r.fd ∧ (f r).base = r.base) :
      ∃ r₀, s.world.heap.bufferevents b = some r₀ ∧ r.fd = r₀.fd ∧ r.base = r₀.base := by
    obtain ⟨r₀, hr₀, rfl⟩ := Heap.modify_eq_some hr
    refine ⟨r₀, hr₀, ?_⟩
    split
    · exact hf r₀
    · exact ⟨rfl, rfl⟩
  rw [effect_bufferevents] at h
  cases a with
  | worker k o =>
    dsimp only at h
    cases hk : s.workers[k]? with
    | none =>
      rw [hk] at h
      exact .inl ⟨r, h, rfl, rfl⟩
    | some pc =>
      rw [hk] at h
      dsimp only at h
      rw [workerStep_bufferevents] at h
      cases pc with
      | clientSocketNew addr fd base =>
        cases base with
        | none => exact .inl ⟨r, h, rfl, rfl⟩
        | some base =>
          cases hok : o.ok with
          | false => exact .inl ⟨r, by simpa [hok] using h, rfl, rfl⟩
          | true =>
            simp only [hok, if_true] at h
            by_cases hb : b = s.world.heap.fresh
            · subst hb
              rw [Function.update_self] at h
              cases h
              exact .inr ⟨rfl, .inr ⟨k, o, addr, some base, rfl, hk⟩⟩
            · rw [Function.update_of_ne hb] at h
              exact .inl ⟨r, h, rfl, rfl⟩
      | clientConnect addr base conn =>
        cases conn with
        | none => exact .inl ⟨r, h, rfl, rfl⟩
        | some c =>
          cases hok : o.ok with
          | false => exact .inl ⟨r, by simpa [hok] using h, rfl, rfl⟩
          | true =>
            simp only [hok, if_true] at h
            exact .inl (hmodify h fun _ => ⟨rfl, rfl⟩)
      | _ => exact .inl ⟨r, h, rfl, rfl⟩
  | accept listener fd ok =>
    dsimp only at h
    cases hr : acceptedBufferevent s.world.heap listener fd ok with
    | none => exact .inl ⟨r, by simpa [hr] using h, rfl, rfl⟩
    | some r₀ =>
      simp only [hr] at h
      by_cases hb : b = s.world.heap.fresh
      · subst hb
        rw [Function.update_self] at h
        cases h
        unfold acceptedBufferevent at hr
        split at hr
        · obtain ⟨l, -, rfl⟩ := Option.map_eq_some_iff.mp hr
          exact .inr ⟨rfl, .inl ⟨listener, ok, rfl⟩⟩
        · cases hr
      · rw [Function.update_of_ne hb] at h
        exact .inl ⟨r, h, rfl, rfl⟩
  | arrive bev chunk =>
    dsimp only at h
    exact .inl (hmodify h fun _ => ⟨rfl, rfl⟩)
  | readcb bev ok | writecb bev ok =>
    cases ok with
    | false => exact .inl ⟨r, h, rfl, rfl⟩
    | true =>
      simp only [if_true] at h
      exact .inl (hmodify h fun _ => ⟨rfl, rfl⟩)
  | event bev what =>
    dsimp only at h
    exact .inl (hmodify h fun _ => ⟨rfl, rfl⟩)
  | destroy =>
    dsimp only at h
    rw [destroy_bufferevents] at h
    cases hc : s.world.ati.conn with
    | none => exact .inl ⟨r, by simpa [hc] using h, rfl, rfl⟩
    | some c =>
      simp only [hc] at h
      by_cases hb : b = c
      · simp [hb] at h
      · rw [Function.update_of_ne hb] at h
        exact .inl ⟨r, h, rfl, rfl⟩
  | _ => exact .inl ⟨r, h, rfl, rfl⟩

/-- A listener was there or a server has just bound it. -/
theorem listener_origin {a : Action} (ha : a ≠ .destroy) {l : Handle} {r : Evconnlistener}
    (h : (effect inetAddr s a).1.world.heap.listeners l = some r) :
    s.world.heap.listeners l = some r ∨
      ∃ k o addr base, a = .worker k o ∧ s.workers[k]? = some (.serverBind addr (some base)) ∧
        o.ok = true ∧ l = s.world.heap.fresh ∧ r = ⟨base, o.fd⟩ := by
  rw [effect_listeners] at h
  cases a with
  | worker k o =>
    dsimp only at h
    cases hk : s.workers[k]? with
    | none =>
      rw [hk] at h
      exact .inl h
    | some pc =>
      rw [hk] at h
      dsimp only at h
      rw [workerStep_listeners] at h
      cases pc with
      | serverBind addr base =>
        cases base with
        | none => exact .inl h
        | some base =>
          cases hok : o.ok with
          | false => exact .inl (by simpa [hok] using h)
          | true =>
            simp only [hok, if_true] at h
            by_cases hl : l = s.world.heap.fresh
            · subst hl
              rw [Function.update_self] at h
              cases h
              exact .inr ⟨k, o, addr, base, rfl, hk, hok, rfl, rfl⟩
            · rw [Function.update_of_ne hl] at h
              exact .inl h
      | _ => exact .inl h
  | destroy => exact absurd rfl ha
  | _ => exact .inl h

/-- What can happen to a descriptor in one action, besides the destructor. -/
theorem fd_change (hcb : s.world.ati.mCallback = some cb) (hcls : cb.cls = myCallback)
    {a : Action} (hen : Enabled s a) (ha : a ≠ .destroy) (fd : Fd) :
    (effect inetAddr s a).1.world.fds fd = s.world.fds fd ∨ s.world.fds fd = none ∨
      (s.world.fds fd = some (.socket s.world.me) ∧
        (effect inetAddr s a).1.world.fds fd = some (.connection s.world.me)) ∨
      (∃ bev what, a = .event bev what ∧ EndsConnection what ∧
        fd = s.world.buffereventGetfd bev) ∨
      (∃ listener err, a = .listenerError listener err) ∨ s.world.fds fd = some .rest := by
  have hupdate (d : Fd) (h : Option (Holder ι)) (hd : s.world.fds d = none) :
      Function.update s.world.fds d h fd = s.world.fds fd ∨ s.world.fds fd = none := by
    by_cases he : fd = d
    · exact .inr (he ▸ hd)
    · exact .inl (Function.update_of_ne he _ _)
  have hunused (d : Fd) (h : s.Unused d) : s.world.fds d = none := Option.isNone_iff_eq_none.mp h.2
  rw [effect_fds inetAddr hcb hcls]
  cases a with
  | worker k o =>
    obtain ⟨-, pc, hk, hok⟩ := hen
    simp only [Option.mem_def.mp hk, workerStep_fds]
    cases pc with
    | clientEntry =>
      by_cases h : o.ok = true ∧ o.fd ≠ -1
      · simp only [if_pos h]
        rcases hupdate o.fd _ (hunused _ (hok h.1)) with h' | h'
        · exact .inl h'
        · exact .inr (.inl h')
      · simp only [if_neg h, true_or]
    | serverBind addr base =>
      cases base with
      | none => exact .inl rfl
      | some base =>
        by_cases h : o.ok = true
        · simp only [if_pos h]
          rcases hupdate o.fd _ (hunused _ (hok h)) with h' | h'
          · exact .inl h'
          · exact .inr (.inl h')
        · simp only [if_neg h, true_or]
    | _ => exact .inl rfl
  | accept listener d ok =>
    rcases hupdate d _ (hunused _ hen.2.2) with h' | h'
    · exact .inl h'
    · exact .inr (.inl h')
  | event bev what =>
    by_cases hends : EndsConnection what
    · by_cases hfd : fd = s.world.buffereventGetfd bev
      · exact .inr (.inr (.inr (.inl ⟨bev, what, rfl, hends, hfd⟩)))
      · simp only [if_pos hends, Function.update_of_ne hfd, Sys.reportConnect, hends.1]
        exact .inl (by simp)
    · simp only [if_neg hends, Sys.reportConnect]
      split
      · rename_i hsocket
        by_cases hfd : fd = s.world.buffereventGetfd bev
        · subst hfd
          exact .inr (.inr (.inl ⟨hsocket.2, Function.update_self _ _ _⟩))
        · exact .inl (Function.update_of_ne hfd _ _)
      · exact .inl rfl
  | listenerError listener err => exact .inr (.inr (.inr (.inr (.inl ⟨listener, err, rfl⟩))))
  | destroy => exact absurd rfl ha
  | openOther d =>
    rcases hupdate d _ (hunused _ hen) with h' | h'
    · exact .inl h'
    · exact .inr (.inl h')
  | closeOther d =>
    by_cases he : fd = d
    · exact .inr (.inr (.inr (.inr (.inr (he ▸ hen)))))
    · exact .inl (Function.update_of_ne he _ _)
  | _ => exact .inl rfl

end Steps
end AutoTest
